import TreeFeatures.Script.Editor
import TreeFeatures.Script.Installer

/-!
# Surroundings that follow a script

`Stage` puts a scripted editor and a scripted installer together with the machine that settings are
loaded from and with listeners outside, which may request installs when they are told about one.
`Stage.surroundings` answers calls from it.
-/

namespace TreeFeatures.Script

/-- A listener outside. -/
structure Listener where
  /-- The language that it requests, with the callback of the request, and how often it still
  does so. -/
  request : Option (Request × Nat) := none
  /-- How it fails each time. -/
  failure : Option String := none

/-- All that follows a script. -/
structure Stage where
  editor : Editor := {}
  installer : Installer := {}
  listeners : Assoc String Listener := []
  machine : Machine

namespace Stage

/-- A reply, and the stage after it. -/
abbrev Answered (c : Call) := Except Fault c.Reply × Stage

/-- Register grammars. -/
def register (st : Stage) (languages : List String) : Stage :=
  { st with editor := { st.editor with installed := st.editor.installed ++ languages } }

/-- What a listener does, and the listener after it. -/
def react (l : Listener) : Reaction × Listener :=
  let failure := l.failure.map Fault.external
  match l.request with
  | some (r, n + 1) => (⟨[r], failure⟩, { l with request := some (r, n) })
  | _ => (⟨[], failure⟩, l)

/-- Tell a listener. -/
def tell (st : Stage) (name : String) : Reaction × Stage :=
  match Assoc.get? st.listeners name with
  | some l => ((react l).1, { st with listeners := Assoc.put st.listeners name (react l).2 })
  | none => (⟨[], none⟩, st)

/-- Call the installer. -/
def install (st : Stage) (languages : List String) : Except Fault Promise × Stage :=
  let call := st.installer.calls.length
  let st' := { st with installer :=
    { st.installer with calls := st.installer.calls ++ [languages] } }
  match st.installer.planned call with
  | .value v keep =>
    (.ok (.now v), st'.register (Installer.registered languages (.value v keep)))
  | .failure m => (.error (.external m), st')
  | .open => (.ok (.later call), st')

/-- Collect the value of an open call that has ended. -/
def collect (st : Stage) (call : Nat) : Except Fault Value × Stage :=
  match st.installer.endOf call with
  | .value v keep =>
    (.ok v,
      st.register (Installer.registered (st.installer.languagesOf call) (.value v keep)))
  | .failure m => (.error (.external m), st)
  | .open => (.error (.external "the call has not ended"), st)

/-- Look for an installer in a way of its own. -/
def find (st : Stage) : Except Fault Bool :=
  match st.installer.finder with
  | .finds => .ok true
  | .findsNothing => .ok false
  | .fails m => .error (.external m)

/-- The names of the registered installers. -/
def entryPointNames (st : Stage) : Except Fault (List String) :=
  match st.installer.entryPoints with
  | .ok es => .ok (es.map EntryPoint.name)
  | .error m => .error (.external m)

/-- Load the registered installer at a position. -/
def loadEntryPoint (st : Stage) (index : Nat) : Except Fault Unit :=
  match (st.installer.entryPoint? index).bind EntryPoint.loadFailure with
  | some m => .error (.external m)
  | none => .ok ()

/-- Make the registered installer at a position. -/
def makeInstaller (st : Stage) (index : Nat) : Except Fault Value :=
  match st.installer.entryPoint? index with
  | some e =>
    match e.makeFailure with
    | some m => .error (.external m)
    | none => .ok e.made
  | none => .ok .null

/-- The reply to a call that is not for the editor. -/
def replyElsewhere : (c : Call) → Stage → Option (Answered c)
  | .findInstaller, st => some (st.find, st)
  | .entryPoints _, st => some (st.entryPointNames, st)
  | .loadEntryPoint index _, st => some (st.loadEntryPoint index, st)
  | .makeInstaller index _, st => some (st.makeInstaller index, st)
  | .install languages, st => some (st.install languages)
  | .collect ticket, st => some (st.collect ticket)
  | .tell name _ _, st => some (.ok (st.tell name).1, (st.tell name).2)
  | _, _ => none

/-- The reply to a call. -/
def reply (c : Call) (st : Stage) : Answered c :=
  if st.editor.fails c then (.error (.external (word c ++ " failed")), st)
  else
    match Editor.answer c st.editor with
    | some (r, e) => (.ok r, { st with editor := e })
    | none => (replyElsewhere c st).getD (.error (.external "nobody answers"), st)

/-- The surroundings that a stage is. -/
def surroundings : Surroundings Stage := ⟨reply, Stage.machine⟩

end Stage

end TreeFeatures.Script
