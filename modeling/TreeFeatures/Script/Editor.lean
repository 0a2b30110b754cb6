import TreeFeatures.Editor.Call

/-!
# An editor that follows a script

`Script.Editor` answers the calls that go to an editor from tables, so that settings can be tried
out without one. Options are kept per handle; a handle without options has the defaults of an editor
that was just started. Calls can be made to fail, all of one kind or those with a given first
argument.
-/

namespace TreeFeatures.Script

/-- The options of each handle. -/
abbrev Options := Assoc Handle (Assoc String Value)

/-- An editor that follows a script. -/
structure Editor where
  /-- The filetypes of a language; a language that is not listed has itself. -/
  filetypes : Assoc String (List String) := []
  /-- The language of a filetype, where it is not the first that lists the filetype. -/
  languages : Assoc String (Option String) := []
  /-- The languages whose grammars are registered. -/
  installed : List String := []
  /-- What registering a grammar answers, where it is not whether it is installed. -/
  additions : Assoc String Value := []
  /-- The queries of a language, by name or as a list of names. -/
  queries : Assoc String Value := []
  bundledPaths : List String := []
  current : Handle := .number 1
  documentFiletypes : Assoc Handle String := []
  views : Assoc Handle Handle := []
  viewOptions : Options := []
  documentOptions : Options := []
  highlighting : Assoc Handle String := []
  closed : List Handle := []
  /-- The first arguments of the calls that fail, by kind of call; a star stands for all. -/
  failing : Assoc String (List Handle) := []

/-- The word for a kind of call. -/
def word : Call → String
  | .filetypes _ => "get_filetypes"
  | .languageOf _ => "get_lang"
  | .addLanguage _ => "add_language"
  | .query _ _ => "get_query"
  | .startHighlighting _ _ => "start_highlighting"
  | .stopHighlighting _ => "stop_highlighting"
  | .isHighlighting _ => "is_highlighting"
  | .currentDocument => "current_document"
  | .filetypeOf _ => "get_filetype"
  | .viewOf _ => "view_for"
  | .getOption .view _ _ => "get_view_option"
  | .getOption .document _ _ => "get_document_option"
  | .setOption .view _ _ _ => "set_view_option"
  | .setOption .document _ _ _ => "set_document_option"
  | .bundledPaths => "bundled_query_paths"
  | .isValid _ => "is_valid_document"
  | .notify _ _ => "notify"
  | .findInstaller => "loader"
  | .entryPoints _ => "entry_points"
  | .loadEntryPoint _ _ => "ep_load"
  | .makeInstaller _ _ => "ep_factory"
  | .install _ => "install"
  | .collect _ => "collect"
  | .tell _ _ _ => "callback"

/-- What a failing call is picked by. -/
def key? : Call → Option Handle
  | .filetypes language | .addLanguage language => some (.name language)
  | .languageOf filetype => some (.name filetype)
  | .query language name => some (.name (language ++ "/" ++ name))
  | .startHighlighting document _ | .stopHighlighting document | .isHighlighting document
  | .filetypeOf document | .viewOf document | .isValid document => some document
  | .getOption _ _ name | .setOption _ _ name _ => some (.name name)
  | _ => none

namespace Editor

/-- Whether a call is made to fail. -/
def fails (e : Editor) (c : Call) : Bool :=
  let picked := (Assoc.get? e.failing (word c)).getD []
  picked.contains (.name "*") || (key? c).any picked.contains

/-- The options of a handle before anybody changed them. -/
def defaults : Scope → Assoc String Value
  | .view => [("foldmethod", .text "manual"), ("foldexpr", .text "0")]
  | .document => [("indentexpr", .text "")]

/-- The options of a scope. -/
def options (e : Editor) : Scope → Options
  | .view => e.viewOptions
  | .document => e.documentOptions

/-- Replace the options of a scope. -/
def setOptions (e : Editor) (scope : Scope) (t : Options) : Editor :=
  match scope with
  | .view => { e with viewOptions := t }
  | .document => { e with documentOptions := t }

/-- The options of a handle. -/
def optionsOf (e : Editor) (scope : Scope) (handle : Handle) : Assoc String Value :=
  (Assoc.get? (e.options scope) handle).getD (defaults scope)

/-- Have a handle hold options of its own. -/
def touch (e : Editor) (scope : Scope) (handle : Handle) : Editor :=
  e.setOptions scope (Assoc.put (e.options scope) handle (e.optionsOf scope handle))

/-- Change an option. -/
def setOption (e : Editor) (scope : Scope) (handle : Handle) (name : String) (v : Value) :
    Editor :=
  e.setOptions scope
    (Assoc.put (e.options scope) handle (Assoc.put (e.optionsOf scope handle) name v))

/-- The filetypes of a language. -/
def filetypesOf (e : Editor) (language : String) : List String :=
  (Assoc.get? e.filetypes language).getD [language]

/-- The language of a filetype. -/
def languageOf (e : Editor) (filetype : String) : Option String :=
  match Assoc.get? e.languages filetype with
  | some language => language
  | none => some (((e.filetypes.find? fun entry => entry.2.contains filetype).map Prod.fst).getD
      filetype)

/-- What registering a grammar answers. -/
def addLanguage (e : Editor) (language : String) : Value :=
  (Assoc.get? e.additions language).getD (.bool (e.installed.contains language))

/-- A query of a language, or null. -/
def query (e : Editor) (language name : String) : Value :=
  match Assoc.get? e.queries language with
  | none => if ["highlights", "folds", "indents"].contains name then .text name else .null
  | some (.table entries) => (Value.member? entries name).getD .null
  | some (.list names) => if names.any (Value.same (.text name)) then .text name else .null
  | some _ => .null

/-- The answer to a call, and the editor after it; no answer to calls that are not for it. -/
def answer : (c : Call) → Editor → Option (c.Reply × Editor)
  | .filetypes language, e => some (e.filetypesOf language, e)
  | .languageOf filetype, e => some (e.languageOf filetype, e)
  | .addLanguage language, e => some (e.addLanguage language, e)
  | .query language name, e => some (e.query language name, e)
  | .startHighlighting document language, e =>
    some ((), { e with highlighting := Assoc.put e.highlighting document language })
  | .stopHighlighting document, e =>
    some ((), { e with highlighting := Assoc.remove e.highlighting document })
  | .isHighlighting document, e => some (Assoc.has e.highlighting document, e)
  | .currentDocument, e => some (e.current, e)
  | .filetypeOf document, e => some ((Assoc.get? e.documentFiletypes document).getD "", e)
  | .viewOf document, e =>
    some ((Assoc.get? e.views document).getD (.name ("view:" ++ document.text)), e)
  | .getOption scope handle name, e =>
    some ((Assoc.get? (e.optionsOf scope handle) name).getD .null, e.touch scope handle)
  | .setOption scope handle name v, e => some ((), e.setOption scope handle name v)
  | .bundledPaths, e => some (e.bundledPaths, e)
  | .isValid document, e => some (!e.closed.contains document, e)
  | .notify _ _, e => some ((), e)
  | .findInstaller, _ | .entryPoints _, _ | .loadEntryPoint _ _, _ | .makeInstaller _ _, _
  | .install _, _ | .collect _, _ | .tell _ _ _, _ => none

end Editor

end TreeFeatures.Script
