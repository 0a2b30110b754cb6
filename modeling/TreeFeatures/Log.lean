/-!
# The log

A log entry has a level, the part of the program that speaks, and a text.
-/

namespace TreeFeatures

/-- How urgent an entry is. -/
inductive Level where
  | debug
  | info
  | warning
  | error
  deriving DecidableEq

namespace Level

/-- The name of a level. -/
def name : Level → String
  | debug => "DEBUG"
  | info => "INFO"
  | warning => "WARNING"
  | error => "ERROR"

/-- The rank of a level. -/
def rank : Level → Nat
  | debug => 10
  | info => 20
  | warning => 30
  | error => 40

end Level

/-- The parts of the program that write entries. -/
inductive Channel where
  | commands
  | config
  | context
  | controller
  | engine
  | features
  | installer
  | registry
  deriving DecidableEq

/-- The name of a channel. -/
def Channel.name : Channel → String
  | commands => "ts_enable.commands"
  | config => "ts_enable.config"
  | context => "ts_enable.context"
  | controller => "ts_enable.controller"
  | engine => "ts_enable.engine"
  | features => "ts_enable.features"
  | installer => "ts_enable.installer"
  | registry => "ts_enable.registry"

/-- An entry of the log. -/
structure LogEntry where
  level : Level
  channel : Channel
  text : String
  deriving DecidableEq

end TreeFeatures
