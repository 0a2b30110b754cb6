import TreeFeatures.Settings.Complaint

/-!
# Reports

Model of `TSEnableError` and the errors derived from it. A report is an error that a caller has to
see: a message with a category, details, perhaps a hint how to recover and perhaps a cause. There
are reports on the configuration, on the installer and on commands, and general ones.
-/

namespace TreeFeatures

/-- The kinds of trouble (`ErrorCategory`). -/
inductive Category where
  | configInvalid
  | configMissing
  | installerMissing
  | installFailed
  | invalidCommand
  | unknown
  deriving DecidableEq

namespace Category

/-- All categories. -/
def all : List Category :=
  [configInvalid, configMissing, installerMissing, installFailed, invalidCommand, unknown]

/-- The text of a category. -/
def text : Category → String
  | configInvalid => "config_invalid"
  | configMissing => "config_missing"
  | installerMissing => "installer_missing"
  | installFailed => "install_failed"
  | invalidCommand => "invalid_command"
  | unknown => "unknown"

/-- The category of a text. -/
def ofText? (s : String) : Option Category := all.find? fun c => c.text == s

end Category

/-- What a report goes back to. -/
inductive Cause where
  | rejected (complaints : List Complaint)
  | malformed
  | os (errno : Nat)
  /-- A failure of the surroundings, in their words. -/
  | external (message : String)
  deriving DecidableEq

/-- A place in words. -/
def Place.text : Place → String
  | name s => s
  | index i => toString i

/-- A complaint in words. -/
def Complaint.text (c : Complaint) : String :=
  ".".intercalate (c.path.map Place.text) ++ " " ++ c.problem.word

/-- The text that a cause adds to the message of a report; a failure of the surroundings is told
in the message itself. -/
def Cause.text? : Cause → Option String
  | rejected cs => some (", ".intercalate (cs.map Complaint.text))
  | malformed => some "not a YAML document"
  | os errno => some ("system error " ++ toString errno)
  | external _ => none

/-- What a report is about. -/
inductive Subject where
  | general
  | configuration (path : Option String)
  | installer (languages : List String)
  | command (name : String)
  deriving DecidableEq

/-- An error that a caller has to see (`TSEnableError`). -/
structure Report where
  subject : Subject
  /-- The message without the text of the cause. -/
  headline : String
  category : Category
  hint : Option String
  details : Value
  cause : Option Cause

namespace Report

/-- An empty table. -/
def noDetails : Value := .table []

/-- The whole message. -/
def message (r : Report) : String :=
  match r.cause.bind Cause.text? with
  | some t => r.headline ++ ": " ++ t
  | none => r.headline

/-- A report that is about nothing special; empty details of any kind are an empty table. -/
def general (headline : String) (category : Category) (details : Value) (hint : Option String)
    (cause : Option Cause) : Report :=
  ⟨.general, headline, category, hint, if details.isHollow then noDetails else details, cause⟩

/-- The hint of every report on the configuration. -/
def configurationHint : String := "Check the YAML syntax and field names of the configuration file"

/-- A report on the configuration (`ConfigurationError`), with the path of the file if there is
one. -/
def configuration (headline : String) (path : Option String) (category : Category)
    (cause : Option Cause) : Report :=
  let details := match path with
    | some p => if p = "" then noDetails else .table [(.text "path", .text p)]
    | none => noDetails
  ⟨.configuration path, headline, category, some configurationHint, details, cause⟩

/-- Texts as a list value. -/
def textList (xs : List String) : Value := .list (xs.map .text)

/-- A report on the installer (`InstallerError`), with the languages concerned. -/
def installer (headline : String) (languages : List String) (category : Category)
    (hint : Option String) (cause : Option Cause) : Report :=
  ⟨.installer languages, headline, category, hint,
    .table [(.text "languages", textList languages)], cause⟩

/-- A report on a command that does not exist (`CommandError`), with the ones that do. -/
def command (name : String) (valid : List String) : Report :=
  ⟨.command name, "Invalid sub-command \"" ++ name ++ "\"", .invalidCommand,
    if valid.isEmpty then none else some ("Use one of: " ++ ", ".intercalate valid),
    .table [(.text "command", .text name), (.text "valid_commands", textList valid)], none⟩

/-- The message, and the hint on a line of its own. -/
def text (r : Report) : String :=
  match r.hint with
  | some h => if h = "" then r.message else r.message ++ "\nRecovery hint: " ++ h
  | none => r.message

/-- The report as a table (`TSEnableError.to_dict`). -/
def toTable (r : Report) : Value :=
  .table [(.text "error", .text r.message), (.text "category", .text r.category.text),
    (.text "recovery_hint", (r.hint.map Value.text).getD .null), (.text "details", r.details)]

end Report

end TreeFeatures
