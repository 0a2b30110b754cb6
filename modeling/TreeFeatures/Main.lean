import TreeFeatures.CommandLine.Run

/-!
# The program

Runs a command line on the machine at hand: writes its output, its log and what ended it early, and
exits with its code.
-/

namespace TreeFeatures.Program

/-- The variables that settings can come from, in capitals and in small letters. -/
def variableNames : List String :=
  let fields := Settings.fieldNames.map (Environment.variableStart ++ ·)
  Settings.pathVariable :: fields ++
    fields.map fun n => String.ofList (n.toList.map Char.toUpper)

/-- The variables that are set. -/
def readEnvironment : IO Environment :=
  variableNames.filterMapM fun name => do pure ((← IO.getEnv name).map fun v => (name, v))

/-- What is known of a path that could not be read. -/
def lookupOf : IO.Error → Lookup
  | .noFileOrDirectory _ _ _ => .missing
  | .inappropriateType _ _ _ => .directory
  | .permissionDenied _ errno _ => .unreadable errno.toNat
  | .invalidArgument _ errno _ => .unreachable errno.toNat
  | _ => .unreadable 5

/-- What lies at a path. -/
def look (p : Path) : IO Lookup := do
  try pure (.file (← IO.FS.readBinFile p.toString).toList)
  catch e => pure (lookupOf e)

/-- The machine at hand, as far as a command line can ask about it. -/
def readMachine (args : List String) : IO Machine := do
  let environment ← readEnvironment
  let home ← IO.getEnv "HOME"
  let homeOf (user : String) : Option String := if user = "" then home else none
  let named := (args ++ (environment.get? Settings.pathVariable).toList).map Path.ofString
  let paths := distinct (named ++ named.filterMap (Path.expand? homeOf))
  let found ← paths.mapM fun p => do pure (p, ← look p)
  pure ⟨environment, homeOf, fun p => (Assoc.get? found p).getD .missing⟩

/-- The width of the console, as far as it is known. -/
def consoleWidth : IO Nat := do pure (((← IO.getEnv "COLUMNS").bind String.toNat?).getD 80)

/-- Write what a run comes to. -/
def report (o : CommandLine.Outcome) : IO Unit := do
  for e in o.log do
    if o.threshold.rank ≤ e.level.rank then IO.eprintln (e.level.name ++ " " ++ e.text)
  IO.print o.output
  match o.escaped with
  | some e => IO.eprintln e.message
  | none => pure ()

end TreeFeatures.Program

/-- Run a command line. -/
def main (args : List String) : IO UInt32 := do
  let machine ← TreeFeatures.Program.readMachine args
  let outcome := TreeFeatures.CommandLine.run machine
    { width := ← TreeFeatures.Program.consoleWidth } args
  TreeFeatures.Program.report outcome
  pure (UInt32.ofNat outcome.exitCode)
