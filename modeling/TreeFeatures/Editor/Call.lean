import TreeFeatures.Editor.Handle
import TreeFeatures.Fault
import TreeFeatures.Log
import TreeFeatures.Settings.Load

/-!
# Calls to the surroundings

The program runs inside an editor and next to an installer of grammars. `Call` is all that it can
ask of them and `Call.Reply` the answer that a call gets. Any call may fail.

`Surroundings` answers calls. It is a function of the call and of a state of its own, so that an
answer can depend on all that happened before.
-/

namespace TreeFeatures

/-- Where an option of the editor lives (`OptionScope`). -/
inductive Scope where
  | view
  | document
  deriving DecidableEq

namespace Scope

/-- The word for a scope. -/
def text : Scope → String
  | view => "view"
  | document => "document"

/-- The scope of a word. -/
def ofText? (s : String) : Option Scope := [view, document].find? fun c => c.text == s

end Scope

/-- Who hears about the end of an install. -/
inductive Callback where
  /-- The enablement of documents. -/
  | enablement
  /-- Somebody outside. -/
  | outside (name : String)
  deriving DecidableEq

/-- A request to install languages. -/
structure Request where
  languages : List String
  callback : Option Callback

/-- What somebody outside does when told about an install: make requests, and perhaps fail. -/
structure Reaction where
  requests : List Request
  failure : Option Fault

/-- The answer of the installer: a value now, or a ticket for a value later. -/
inductive Promise where
  | now (v : Value)
  | later (ticket : Nat)

/-- What the program can ask of its surroundings: `HostProtocol`, `InstallerProtocol`, the entry
points of installers, and who hears about the end of an install. -/
inductive Call where
  /-- The filetypes of a language. -/
  | filetypes (language : String)
  /-- The language of a filetype. -/
  | languageOf (filetype : String)
  /-- Register the grammar of a language; it is usable if the answer is the truth value true. -/
  | addLanguage (language : String)
  /-- A query of a language, null if there is none. -/
  | query (language name : String)
  | startHighlighting (document : Handle) (language : String)
  | stopHighlighting (document : Handle)
  | isHighlighting (document : Handle)
  | currentDocument
  | filetypeOf (document : Handle)
  /-- The view that presents a document. -/
  | viewOf (document : Handle)
  | getOption (scope : Scope) (handle : Handle) (name : String)
  | setOption (scope : Scope) (handle : Handle) (name : String) (value : Value)
  /-- The paths of the query files that come with the editor. -/
  | bundledPaths
  | isValid (document : Handle)
  /-- Show a message to the user. -/
  | notify (message : String) (level : Level)
  /-- Look for an installer in the way that was configured; whether there is one. -/
  | findInstaller
  /-- The names of the registered installers. -/
  | entryPoints (group : String)
  /-- Load the registered installer at a position. -/
  | loadEntryPoint (index : Nat) (name : String)
  /-- Make the installer that was loaded from a position, null if there is none. -/
  | makeInstaller (index : Nat) (name : String)
  /-- Have the installer install languages. -/
  | install (languages : List String)
  /-- The value that a ticket stands for. -/
  | collect (ticket : Nat)
  /-- Tell somebody outside about the end of an install. -/
  | tell (name language : String) (success : Bool)

/-- The answer to a call. -/
abbrev Call.Reply : Call → Type
  | filetypes _ => List String
  | languageOf _ => Option String
  | addLanguage _ => Value
  | query _ _ => Value
  | startHighlighting _ _ => Unit
  | stopHighlighting _ => Unit
  | isHighlighting _ => Bool
  | currentDocument => Handle
  | filetypeOf _ => String
  | viewOf _ => Handle
  | getOption _ _ _ => Value
  | setOption _ _ _ _ => Unit
  | bundledPaths => List String
  | isValid _ => Bool
  | notify _ _ => Unit
  | findInstaller => Bool
  | entryPoints _ => List String
  | loadEntryPoint _ _ => Unit
  | makeInstaller _ _ => Value
  | install _ => Promise
  | collect _ => Value
  | tell _ _ _ => Reaction

/-- What answers calls, over a state of its own. -/
structure Surroundings (σ : Type) where
  reply : (c : Call) → σ → Except Fault c.Reply × σ
  /-- The machine that settings are loaded from. -/
  machine : σ → Machine

end TreeFeatures
