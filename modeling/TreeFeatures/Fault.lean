import TreeFeatures.Report
import TreeFeatures.Text.Utf8
import TreeFeatures.Yaml.Document

/-!
# Faults

A fault is what makes an operation end without a result: a report, or one of the failures that are
passed on as they are. `Fault.message` is its text in log messages.
-/

namespace TreeFeatures

/-- Why an operation ended without a result. -/
inductive Fault where
  | report (r : Report)
  /-- A failure of the surroundings, in their words. -/
  | external (message : String)
  /-- The environment variable of a field is not JSON. -/
  | unreadableVariable (field : String)
  /-- A name at the top of a settings file is not a text. -/
  | nameNotText
  /-- A file is not UTF-8. -/
  | undecodable (f : Utf8.Fault)
  /-- A scalar of a document does not denote a value of its type. -/
  | scalar (f : Yaml.Fault)
  /-- A path cannot be followed. -/
  | os (errno : Nat)
  /-- The home directory of a user is not known. -/
  | noHome
  /-- A text is none of the known words of some list. -/
  | unknownWord (word kind : String)
  /-- The shared controller was asked for before it had a host. -/
  | needsHost

namespace Fault

/-- The text of a fault. -/
def message : Fault → String
  | report r => r.text
  | external m => m
  | unreadableVariable field =>
    "error parsing value for field \"" ++ field ++ "\" from source \"EnvSettingsSource\""
  | nameNotText => "keywords must be strings"
  | undecodable f => f.message
  | scalar (.badScalar reason) => reason
  | scalar _ => "a scalar is not of its type"
  | os errno => "[Errno " ++ toString errno ++ "]"
  | noHome => "Could not determine home directory."
  | unknownWord word kind => quoted word ++ " is not a valid " ++ kind
  | needsHost => "get_controller() needs a host on first use"

end Fault

end TreeFeatures
