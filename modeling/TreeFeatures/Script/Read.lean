import TreeFeatures.Script.Stage
import TreeFeatures.Value.Fields

/-!
# Reading scripts

A script is given as a table. Its members name the tables of the editor, the outcomes of the
installer and what listeners do; members that are missing have the defaults.
-/

namespace TreeFeatures

/-- The handle that a value stands for. -/
def Handle.ofValue : Value → Handle
  | .int n => .number n
  | .text s => .name s
  | _ => .absent

/-- The callback that a value stands for. -/
def Callback.ofValue : Value → Option Callback
  | .text "engine" => some .enablement
  | .text name => some (.outside name)
  | _ => none

namespace Script

namespace Editor

/-- The options of handles. -/
def readOptions (v : Value) : List (Handle × Assoc String Value) :=
  v.pairs.map fun p => (Handle.ofValue p.1, p.2.entries)

/-- Write options, one after the other. -/
def addOptions (scope : Scope) (e : Editor) (v : Value) : Editor :=
  (readOptions v).foldl
    (fun e o => o.2.foldl (fun e n => e.setOption scope o.1 n.1 n.2) (e.touch scope o.1)) e

/-- Texts by handle. -/
def readNamed (v : Value) : List (Handle × String) :=
  v.pairs.map fun p => (Handle.ofValue p.1, p.2.text?.getD "")

/-- Views by document. -/
def readViews (v : Value) : List (Handle × Handle) :=
  v.pairs.map fun p => (Handle.ofValue p.1, Handle.ofValue p.2)

/-- Set a member of an editor. Filetypes, views and highlighting of documents are added to those
that are there, and options are written one by one. -/
def setMember (e : Editor) (name : String) (v : Value) : Editor :=
  match name with
  | "filetypes" => { e with filetypes := v.entries.map fun m => (m.1, m.2.texts) }
  | "langs" => { e with languages := v.entries.map fun m => (m.1, m.2.text?) }
  | "installed" => { e with installed := v.texts }
  | "add_results" => { e with additions := v.entries }
  | "queries" => { e with queries := v.entries }
  | "bundled" => { e with bundledPaths := v.texts }
  | "current" => { e with current := Handle.ofValue v }
  | "document_filetypes" =>
    { e with documentFiletypes := Assoc.putAll e.documentFiletypes (readNamed v) }
  | "views" => { e with views := Assoc.putAll e.views (readViews v) }
  | "highlighting" => { e with highlighting := Assoc.putAll e.highlighting (readNamed v) }
  | "view_options" => addOptions .view e v
  | "document_options" => addOptions .document e v
  | "closed" => { e with closed := v.items.map Handle.ofValue }
  | "raise" => { e with failing := v.entries.map fun m => (m.1, m.2.items.map Handle.ofValue) }
  | _ => e

/-- Set several members. -/
def change (e : Editor) (v : Value) : Editor :=
  v.entries.foldl (fun e m => e.setMember m.1 m.2) e

/-- Set a member of an editor that is just being made: its options stand instead of the
defaults. -/
def initMember (e : Editor) (name : String) (v : Value) : Editor :=
  match name with
  | "view_options" => { e with viewOptions := Assoc.putAll [] (readOptions v) }
  | "document_options" => { e with documentOptions := Assoc.putAll [] (readOptions v) }
  | _ => e.setMember name v

/-- The editor of a script. -/
def ofValue (v : Value) : Editor := v.entries.foldl (fun e m => e.initMember m.1 m.2) {}

end Editor

/-- How a call ends. -/
def Outcome.ofValue (v : Value) : Outcome :=
  let register := !v.flagAt "no_register" false
  match v.field? "value", v.field? "await" with
  | some r, _ | none, some r => .value r register
  | none, none =>
    match v.textAt? "raise", v.textAt? "await_raise" with
    | some m, _ | none, some m => .failure m
    | none, none => .open

/-- A registered installer; `made` is what is made under a name. -/
def EntryPoint.ofValue (made : String → Value) (v : Value) : EntryPoint :=
  let name := v.textAt "name"
  let object := (v.field? "object").getD (made name)
  { name := name
    loadFailure := v.textAt? "load_raise"
    makeFailure := v.textAt? "factory_raise"
    made := if v.flagAt "none" false then .null else object }

/-- The registered installers, or why they cannot be listed. -/
def readEntryPoints (made : String → Value) (v : Value) : Except String (List EntryPoint) :=
  match v.textAt? "fail" with
  | some m => .error m
  | none => .ok ((v.part "eps").items.map (EntryPoint.ofValue made))

/-- How an installer is found. -/
def Finder.ofValue (v : Value) : Finder :=
  match v.textAt "via" with
  | "loader" => .finds
  | "raise" => .fails (v.textAt "message")
  | _ => .findsNothing

/-- The installer of a script. -/
def Installer.ofValue (v : Value) : Installer :=
  let planned : Installer := {}
  { finder := Finder.ofValue v
    entryPoints := readEntryPoints (fun _ => .bool true) v
    outcomes := ((v.field? "outcomes").map fun os => os.items.map Outcome.ofValue).getD
      planned.outcomes }

/-- The listener of a name: it requests a language once, and hears about it itself, unless the
script says otherwise. -/
def Listener.ofValue (name : String) (v : Value) : Listener :=
  let callback := match v.field? "with" with
    | some other => Callback.ofValue other
    | none => some (.outside name)
  let times := (v.numberAt? "times").getD 1
  { request := (v.textAt? "install").map fun l => (⟨[l], callback⟩, times)
    failure := v.textAt? "raise" }

/-- The stage of a script. -/
def Stage.ofValue (machine : Machine) (v : Value) : Stage :=
  { editor := Editor.ofValue (v.part "host")
    installer := Installer.ofValue (v.part "installer")
    listeners := (v.part "callbacks").entries.map fun e => (e.1, Listener.ofValue e.1 e.2)
    machine := machine }

end Script

end TreeFeatures
