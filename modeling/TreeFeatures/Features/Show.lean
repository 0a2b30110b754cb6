import TreeFeatures.World

/-!
# Showing and hiding features

Model of `FeatureApplier`. `Features.start` shows the features of a document that its flags ask for
and its language has queries for: highlighting, fold options in the view that presents the document,
an indent option in the document itself. `Features.stop` takes the highlighting away and puts every
overridden option back.

The features do not depend on each other, and neither do the options that are put back: a failure of
the editor ends up in the log, and the next part goes on.
-/

namespace TreeFeatures

open Act

/-- What can be shown of a document. -/
inductive Feature where
  | highlights
  | folds
  | indents
  deriving DecidableEq

/-- The query that a language must have for a feature. -/
def Feature.query : Feature → String
  | highlights => "highlights"
  | folds => "folds"
  | indents => "indents"

/-- Whether the flags ask for a feature. -/
def Flags.shows (flags : Flags) : Feature → Bool
  | .highlights => flags.highlights
  | .folds => flags.folds
  | .indents => flags.indents

variable {σ : Type} (s : Surroundings σ)

namespace Override

/-- Write the target on a handle if the option has another value there (`OptionOverride.apply`): the
record after it, and whether the option was written. The value found is kept even if the write
fails. -/
def apply (o : Override) (handle : Handle) : Act σ (Override × Except Fault Bool) := do
  match ← attempt (ask s (.getOption o.scope handle o.name)) with
  | .error f => pure (o, .error f)
  | .ok (current : Value) =>
    if current.same o.target then pure (o, .ok false)
    else
      let written ← attempt (ask s (.setOption o.scope handle o.name o.target))
      pure (o.capture handle current, written.map fun _ => true)

/-- Put the value found before back (`OptionOverride.revert`): the record after it, and whether
there was one. -/
def revert (o : Override) : Act σ (Override × Except Fault Bool) :=
  match o.saved with
  | none => pure (o, .ok false)
  | some (handle, prior) => do
    match ← attempt (ask s (.setOption o.scope handle o.name prior)) with
    | .error f => pure (o, .error f)
    | .ok _ => pure (o.release, .ok true)

end Override

namespace Features

/-- Whether a language has a query (`FeatureApplier.has_query`); one that the editor fails to look
up counts as absent. -/
def hasQuery (language name : String) : Act σ Bool := do
  match ← attempt (ask s (.query language name)) with
  | .error f =>
    note .debug .features ("No " ++ name ++ " query for " ++ language ++ ": " ++ f.message)
    pure false
  | .ok Value.null => pure false
  | .ok _ => pure true

/-- Override an option for a document (`FeatureApplier._override`). -/
def override (document : Handle) (name : String) (scope : Scope) (target : String)
    (handle : Handle) : Act σ Unit := do
  let table := (← state).features.overrides document
  let (o, written) ← (table.record name scope (.text target) handle).apply s handle
  update fun st =>
    { st with features := st.features.setOverrides document (Assoc.put table (name, handle) o) }
  match written with
  | .error f => fail f
  | .ok false => pure ()
  | .ok true => note .debug .features ("Set " ++ name ++ "=" ++ quoted target)

/-- Do something if a feature is asked for and the language has the query that it needs. -/
def whenProvided (wanted : Bool) (language name : String) (act : Act σ Unit) : Act σ Unit :=
  if wanted then do
    if ← hasQuery s language name then act else pure ()
  else pure ()

/-- Highlight a document: the first of the three parts of `FeatureApplier.start`. -/
def showHighlights (document : Handle) (language : String) : Act σ Unit :=
  shielded (ask s (.startHighlighting document language)) .warning .features fun f =>
    "Failed to start highlighting for " ++ language ++ ": " ++ f.message

/-- Fold a document in the view that presents it: the second part of `FeatureApplier.start`. -/
def showFolds (document : Handle) (language : String) : Act σ Unit :=
  shielded
    (do
      let targets := (← state).features.targets
      let view ← ask s (.viewOf document)
      override s document "foldmethod" .view targets.foldMethod view
      override s document "foldexpr" .view targets.foldExpr view)
    .warning .features fun f =>
      "Failed to set fold options for " ++ language ++ ": " ++ f.message

/-- Have the lines of a document indented: the third part of `FeatureApplier.start`. -/
def showIndents (document : Handle) (language : String) : Act σ Unit :=
  shielded
    (do
      let targets := (← state).features.targets
      override s document "indentexpr" .document targets.indentExpr document)
    .warning .features fun f =>
      "Failed to set indent expression for " ++ language ++ ": " ++ f.message

/-- Show a feature for which there is a query. -/
def display (document : Handle) (language : String) : Feature → Act σ Unit
  | .highlights => showHighlights s document language
  | .folds => showFolds s document language
  | .indents => showIndents s document language

/-- Show a feature if it is asked for and there is a query. -/
def part (document : Handle) (language : String) (flags : Flags) (f : Feature) : Act σ Unit :=
  whenProvided s (flags.shows f) language f.query (display s document language f)

/-- The features of a document are shown. -/
def noteStarted (document : Handle) (language : String) : Act σ Unit :=
  note .debug .features
    ("Started " ++ language ++ " features for document " ++ document.text)

/-- Show the features of a document that the flags ask for (`FeatureApplier.start`). -/
def start (document : Handle) (language : String) (flags : Flags) : Act σ Unit := do
  update fun st => { st with features := st.features.activate document }
  part s document language flags .highlights
  part s document language flags .folds
  part s document language flags .indents
  noteStarted document language

/-- Take the highlighting of a document away. -/
def hideHighlights (document : Handle) : Act σ Unit :=
  shielded
    (do
      let shown : Bool ← ask s (.isHighlighting document)
      if shown then ask s (.stopHighlighting document) else pure ())
    .warning .features fun f =>
      "Failed to stop highlighting for document " ++ document.text ++ ": " ++ f.message

/-- Put an option of a document back. -/
def restore (document : Handle) (o : Override) : Act σ Unit := do
  let (_, written) ← o.revert s
  match written with
  | .ok _ => pure ()
  | .error f =>
    note .warning .features
      ("Failed to restore " ++ o.name ++ " for document " ++ document.text ++ ": " ++ f.message)

/-- Put the options of a document back: the loop of `FeatureApplier.stop`. -/
def restoreAll (document : Handle) (overrides : OverrideTable) : Act σ Unit := do
  overrides.forM fun e => restore s document e.2
  note .debug .features ("Stopped features for document " ++ document.text)

/-- Hide the features of a document (`FeatureApplier.stop`); one that shows none only loses its
highlighting. -/
def stop (document : Handle) : Act σ Unit := do
  let features := (← state).features
  update fun st => { st with features := st.features.drop document }
  hideHighlights s document
  if features.isActive document then restoreAll s document (features.overrides document)
  else pure ()

end Features

end TreeFeatures
