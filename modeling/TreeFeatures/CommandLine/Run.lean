import TreeFeatures.About
import TreeFeatures.CommandLine.Arguments
import TreeFeatures.Console.Markup
import TreeFeatures.Console.Table
import TreeFeatures.Settings.Load

/-!
# The command line

Model of the command line: `main`, and two commands that inspect a settings file. `validate` says
whether it loads, and `resolve` shows the flags in force for each language that it mentions, or for
those asked for. `CommandLine.run` gives what is written on a console and the exit code; it looks at
a machine and changes nothing.
-/

namespace TreeFeatures.CommandLine

/-- The console that a run writes to. -/
structure Console where
  width : Nat
  pictures : Pictures := .none
  styles : Styles := .basic

/-! ## Options -/

/-- The options in front of a command. -/
inductive GlobalOption where
  | logLevel
  | version
  | help
  deriving DecidableEq

/-- The options of a command. -/
inductive CommandOption where
  | language
  | help
  deriving DecidableEq

/-- How the options in front of a command are written. -/
def globalOptions : List (OptionSpec GlobalOption) :=
  [⟨.logLevel, "--log-level", none, true⟩, ⟨.version, "--version", some 'v', false⟩,
    ⟨.help, "--help", none, false⟩]

/-- How the options of `resolve` are written. -/
def resolveOptions : List (OptionSpec CommandOption) :=
  [⟨.language, "--language", some 'l', true⟩, ⟨.help, "--help", none, false⟩]

/-- How the options of `validate` are written. -/
def validateOptions : List (OptionSpec CommandOption) := [⟨.help, "--help", none, false⟩]

/-- From which level on entries of the log are shown. -/
inductive Threshold where
  | everything
  | debug
  | info
  | warning
  | error
  | critical
  deriving DecidableEq

/-- The name of a threshold. -/
def Threshold.name : Threshold → String
  | everything => "NOTSET"
  | debug => "DEBUG"
  | info => "INFO"
  | warning => "WARNING"
  | error => "ERROR"
  | critical => "CRITICAL"

/-- The lowest rank of the entries that are shown. -/
def Threshold.rank : Threshold → Nat
  | everything => 0
  | debug => Level.debug.rank
  | info => Level.info.rank
  | warning => Level.warning.rank
  | error => Level.error.rank
  | critical => 50

/-- The words for thresholds, in upper case. -/
def thresholdWords : List (String × Threshold) :=
  [("NOTSET", .everything), ("DEBUG", .debug), ("INFO", .info), ("WARNING", .warning),
    ("WARN", .warning), ("ERROR", .error), ("CRITICAL", .critical), ("FATAL", .critical)]

/-- The threshold that a word in any case stands for (`_configure_logging`); only warnings for an
unknown word. -/
def Threshold.ofWord (s : String) : Threshold :=
  let upper := String.ofList (s.toList.map Char.toUpper)
  ((thresholdWords.find? fun w => w.1 == upper).map Prod.snd).getD .warning

/-! ## Outcomes -/

/-- What ends a run without output. -/
inductive Escaped where
  | usage (e : UsageError)
  | fault (f : Fault)
  /-- A text that the console cannot show: a closing tag has nothing to close, or the console fails
  on the name or the parameters of a tag. -/
  | markup

/-- In words, what ended a run without output. -/
def Escaped.message : Escaped → String
  | usage e => e.message
  | fault f => f.message
  | markup => "a text cannot be shown"

/-- What a run of the command line comes to. -/
structure Outcome where
  exitCode : Nat
  output : String := ""
  log : List LogEntry := []
  escaped : Option Escaped := none
  threshold : Threshold := .warning

namespace Outcome

/-- The end of a run whose command line cannot be read. -/
def usage (e : UsageError) : Outcome := { exitCode := 2, escaped := some (.usage e) }

/-- The end of a run by a fault that is no report, or by bad markup. -/
def escape (e : Escaped) : Outcome := { exitCode := 1, escaped := some e }

/-- The end of a run that writes a paragraph with tags. -/
def say (console : Console) (exitCode : Nat) (text : String) : Outcome :=
  match Markup.render? console.styles console.pictures text with
  | some plain => { exitCode := exitCode, output := Wrap.paragraph console.width plain }
  | none => .escape .markup

/-- The end of a run by a report. -/
def complain (console : Console) (r : Report) : Outcome :=
  .say console 1 ("[bold red]Error:[/] " ++ Markup.escape r.message)

end Outcome

/-! ## Commands -/

variable (m : Machine) (console : Console)

/-- Load the settings of a file and go on with them; a report is told to the user
(`_load_or_exit`). -/
def withSettings (path : String) (use : Settings → Outcome) : Outcome :=
  let loaded := Settings.load m (some path)
  let outcome := match loaded.result with
    | .ok s => use s
    | .error (.report r) => .complain console r
    | .error f => .escape (.fault f)
  { outcome with log := loaded.log }

/-- The columns of the table of flags. -/
def flagColumns : List Table.Column :=
  ⟨"Language", .left⟩ :: ⟨"Source", .left⟩ ::
    Flag.all.map fun flag => ⟨flag.name, .center⟩

/-- The row of a language. -/
def flagRow (s : Settings) (language : String) : List String :=
  language :: (if s.hasOverride language then "override" else "global") ::
    Flag.all.map fun flag =>
      if (s.resolve (some language)).get flag then "[green]yes[/green]" else "[dim]no[/dim]"

/-- The languages that are shown: those asked for, or else those that the settings mention. -/
def shown (s : Settings) (asked : List String) : List String :=
  if asked.isEmpty then s.languages else asked

/-- The title of the table of flags. -/
def tableTitle : String := "Effective ts-enable features"

/-- The cells of the table of flags as the console shows them, row by row, unless one of them cannot
be shown. -/
def flagCells? (asked : List String) (s : Settings) : Option (List (List String)) :=
  ((shown s asked).map (flagRow s)).mapM (List.mapM (Markup.render? console.styles console.pictures))

/-- Show the flags in force: the end of the command `resolve`. -/
def showFlags (asked : List String) (s : Settings) : Outcome :=
  match flagCells? console asked s with
  | some rows => { exitCode := 0, output := Table.draw console.width tableTitle flagColumns rows }
  | none => .escape .markup

/-- Say how much settings mention. -/
def confirm (s : Settings) : Outcome :=
  .say console 0 ("[green]OK[/green] " ++ toString s.parsers.length ++ " parsers, " ++
    toString s.overrides.length ++ " language overrides")

/-- Check that a file loads (the command `validate`). -/
def validate (path : String) : Outcome :=
  let p := Path.ofString path
  match m.lookup p with
  | .missing => .say console 1 ("[bold red]Error:[/] " ++ p.toString ++ " does not exist")
  | .unreachable errno => .escape (.fault (.os errno))
  | _ => withSettings m console p.toString (confirm console)

/-- Read the options and the one argument of a command. -/
def withPath (options : List (OptionSpec CommandOption)) (args : List String)
    (act : String → List String → Outcome) : Outcome :=
  match Reading.readAll options args with
  | .error e => .usage e
  | .ok r =>
    if r.has .help then { exitCode := 0 }
    else
      match r.arguments with
      | [path] => act path (r.values .language)
      | [] => .usage .missingArgument
      | _ => .usage .extraArgument

/-- A command of a name. -/
def commandOf? : String → Option (List String → Outcome)
  | "resolve" => some fun args =>
    withPath resolveOptions args fun path asked =>
      withSettings m console (Path.ofString path).toString (showFlags console asked)
  | "validate" => some fun args =>
    withPath validateOptions args fun path _ => validate m console path
  | _ => none

/-- Run the command that the arguments begin with. -/
def runCommand (threshold : Threshold) : List String → Outcome
  | [] => .usage .missingCommand
  | name :: args =>
    match commandOf? m console name with
    | none => .usage .unknownCommand
    | some act => { act args with threshold := threshold }

/-- The version in words. -/
def versionLine : String := "ts-enable v" ++ About.version ++ "\n"

/-- Run a command line on a machine. -/
def run (args : List String) : Outcome :=
  match Reading.readLeading globalOptions args with
  | .error e => .usage e
  | .ok r =>
    match r.given.find? fun g => g.option ≠ .logLevel with
    | some ⟨.version, _⟩ => { exitCode := 0, output := versionLine }
    | some _ => { exitCode := 0 }
    | none =>
      let word := (r.values .logLevel).getLast?.getD "WARNING"
      runCommand m console (.ofWord word) r.arguments

end TreeFeatures.CommandLine
